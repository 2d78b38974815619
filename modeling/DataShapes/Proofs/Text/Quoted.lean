import DataShapes.Text.Quoted
import Mathlib.Data.List.Basic

/-! # Reading quoted text

A literal ends at the first quote that has no backslash before it, and an identifier at the first character that it
cannot go on with. So each of them, and each row of them, is told from the beginning of a text, whatever follows. -/

namespace DataShapes

/-! ### Parts of a text -/

/-- Two texts that begin with characters of some kind have the same ones if what follows them is of another kind. -/
theorem append_inj_of_span {p : Char → Bool} {s t r r' : List Char} (hs : ∀ c ∈ s, p c = true)
    (ht : ∀ c ∈ t, p c = true) (hr : ∀ c ∈ r.head?, p c = false) (hr' : ∀ c ∈ r'.head?, p c = false)
    (h : s ++ r = t ++ r') : s = t ∧ r = r' := by
  induction s generalizing t with
  | nil =>
    cases t with
    | nil => exact ⟨rfl, h⟩
    | cons c t =>
      have hc := hr c (by rw [List.nil_append] at h; simp [h])
      rw [ht c List.mem_cons_self] at hc
      cases hc
  | cons c s ih =>
    cases t with
    | nil =>
      have hc := hr' c (by rw [List.nil_append] at h; simp [← h])
      rw [hs c List.mem_cons_self] at hc
      cases hc
    | cons c' t =>
      obtain ⟨rfl, hrest⟩ := List.cons.inj h
      obtain ⟨rfl, hr⟩ := ih (fun d hd => hs d (List.mem_cons_of_mem _ hd))
        (fun d hd => ht d (List.mem_cons_of_mem _ hd)) hrest
      exact ⟨rfl, hr⟩

/-- The text of the first part can be told from the text of any other, before what may follow it. -/
def Told {α : Type} (text : α → List Char) (valid : α → Prop) (follows : List Char → Prop) (part : α) : Prop :=
  ∀ other r r', valid other → follows r → follows r' → text part ++ r = text other ++ r' → part = other ∧ r = r'

/-- A row of parts, each after the same separator, can be told when its parts can, up to a close that begins in
another way than the separator. -/
theorem rows_inj {α : Type} {text : α → List Char} {valid : α → Prop} {follows : List Char → Prop}
    {c c' : Char} (separator close : List Char) (hc : c ≠ c')
    (hseparator : ∀ r, follows (c :: separator ++ r)) (hclose : ∀ r, follows (c' :: close ++ r)) {xs ys : List α}
    (hxs : ∀ x ∈ xs, Told text valid follows x) (hys : ∀ y ∈ ys, valid y) {r r' : List Char}
    (h : xs.flatMap (fun x => c :: separator ++ text x) ++ (c' :: close ++ r) =
      ys.flatMap (fun y => c :: separator ++ text y) ++ (c' :: close ++ r')) : xs = ys ∧ r = r' := by
  induction xs generalizing ys with
  | nil =>
    cases ys with
    | nil =>
      simp only [List.flatMap_nil, List.nil_append] at h
      exact ⟨rfl, List.append_cancel_left h⟩
    | cons y ys =>
      simp only [List.flatMap_nil, List.nil_append, List.flatMap_cons, List.cons_append] at h
      exact absurd (List.cons.inj h).1.symm hc
  | cons x xs ih =>
    obtain ⟨hx, hxs⟩ := List.forall_mem_cons.mp hxs
    cases ys with
    | nil =>
      simp only [List.flatMap_nil, List.nil_append, List.flatMap_cons, List.cons_append] at h
      exact absurd (List.cons.inj h).1 hc
    | cons y ys =>
      obtain ⟨hy, hothers⟩ := List.forall_mem_cons.mp hys
      simp only [List.flatMap_cons, List.append_assoc] at h
      have hparts := List.append_cancel_left h
      -- After a part comes a separator or the close.
      have hfollows : ∀ (zs : List α) (rest : List Char),
          follows (zs.flatMap (fun z => c :: separator ++ text z) ++ (c' :: close ++ rest)) := by
        intro zs rest
        cases zs with
        | nil => exact hclose rest
        | cons z zs =>
          simp only [List.flatMap_cons, List.append_assoc]
          exact hseparator _
      obtain ⟨rfl, hrows⟩ := hx y _ _ hy (hfollows xs r) (hfollows ys r') hparts
      obtain ⟨rfl, hr⟩ := ih hxs hothers hrows
      exact ⟨rfl, hr⟩

namespace Quoted

/-! ### Literals -/

/-- A quote in an escaped text has a backslash before it. -/
theorem escapeChar_append_inj {c c' : Char} {r r' : List Char} (h : escapeChar c ++ r = escapeChar c' ++ r') :
    c = c' ∧ r = r' := by
  unfold escapeChar at h
  grind

theorem escapeChar_append_ne (c : Char) (r r' : List Char) : escapeChar c ++ r ≠ '\x27' :: r' := by
  unfold escapeChar
  grind

theorem escape_append_inj {s t r r' : List Char} (h : escape s ++ '\x27' :: r = escape t ++ '\x27' :: r') :
    s = t ∧ r = r' := by
  induction s generalizing t with
  | nil =>
    cases t with
    | nil => exact ⟨rfl, (List.cons.inj h).2⟩
    | cons c t =>
      simp only [escape, List.flatMap_cons, List.append_assoc] at h
      exact absurd h.symm (escapeChar_append_ne c _ _)
  | cons c s ih =>
    cases t with
    | nil =>
      simp only [escape, List.flatMap_cons, List.append_assoc] at h
      exact absurd h (escapeChar_append_ne c _ _)
    | cons c' t =>
      simp only [escape, List.flatMap_cons, List.append_assoc] at h
      obtain ⟨rfl, hrest⟩ := escapeChar_append_inj h
      obtain ⟨rfl, hr⟩ := ih hrest
      exact ⟨rfl, hr⟩

theorem toList_literal (s : String) : (literal s).toList = '\x27' :: (escape s.toList ++ ['\x27']) := by
  simp [literal, String.toList_append]

theorem literal_append_inj {s t : String} {r r' : List Char} (h : (literal s).toList ++ r = (literal t).toList ++ r') :
    s = t ∧ r = r' := by
  simp only [toList_literal, List.cons_append, List.append_assoc, List.nil_append] at h
  obtain ⟨hs, hr⟩ := escape_append_inj (List.cons.inj h).2
  exact ⟨String.toList_inj.mp hs, hr⟩

/-! ### Property keys -/

theorem isIdentifierRest_of_start {c : Char} (h : isIdentifierStart c = true) : isIdentifierRest c = true := by
  simp only [isIdentifierStart, isIdentifierRest, Char.isAlphanum, Bool.or_eq_true] at h ⊢
  rcases h with (h | h) | h
  · exact Or.inl (Or.inl (Or.inl h))
  · exact Or.inl (Or.inr h)
  · exact Or.inr h

/-- An identifier is of characters that identifiers go on with, and is not empty. -/
theorem exists_of_isIdentifier {s : String} (h : isIdentifier s = true) :
    ∃ c rest, s.toList = c :: rest ∧ isIdentifierStart c = true ∧ ∀ d ∈ s.toList, isIdentifierRest d = true := by
  unfold isIdentifier at h
  cases hs : s.toList with
  | nil => simp [hs] at h
  | cons c rest =>
    simp only [hs, Bool.and_eq_true, List.all_eq_true] at h
    obtain ⟨hstart, hrest⟩ := h
    exact ⟨c, rest, rfl, hstart, List.forall_mem_cons.mpr ⟨isIdentifierRest_of_start hstart, hrest⟩⟩

/-- Identifiers are told from each other by where they end. -/
theorem identifier_append_inj {s t : String} (hs : isIdentifier s = true) (ht : isIdentifier t = true)
    {r r' : List Char} (hr : ∀ c ∈ r.head?, isIdentifierRest c = false)
    (hr' : ∀ c ∈ r'.head?, isIdentifierRest c = false) (h : s.toList ++ r = t.toList ++ r') : s = t ∧ r = r' := by
  obtain ⟨_, _, -, -, hs⟩ := exists_of_isIdentifier hs
  obtain ⟨_, _, -, -, ht⟩ := exists_of_isIdentifier ht
  obtain ⟨hsame, hrest⟩ := append_inj_of_span hs ht hr hr' h
  exact ⟨String.toList_inj.mp hsame, hrest⟩

/-- An identifier does not begin with a quote, so it is no literal. -/
theorem identifier_append_ne {s t : String} (hs : isIdentifier s = true) (r r' : List Char) :
    s.toList ++ r ≠ (literal t).toList ++ r' := by
  obtain ⟨c, rest, hchars, hstart, -⟩ := exists_of_isIdentifier hs
  rw [hchars, toList_literal]
  intro h
  obtain ⟨rfl, -⟩ := List.cons.inj h
  cases hstart

theorem propertyKey_append_inj {s t : String} {r r' : List Char}
    (h : (propertyKey s).toList ++ ':' :: r = (propertyKey t).toList ++ ':' :: r') : s = t ∧ r = r' := by
  have hcolon : ∀ rest : List Char, ∀ c ∈ (':' :: rest).head?, isIdentifierRest c = false := by
    rintro rest c ⟨⟩
    rfl
  have hparts : s = t ∧ ':' :: r = ':' :: r' := by
    unfold propertyKey at h
    by_cases hs : isIdentifier s = true <;> by_cases ht : isIdentifier t = true
    · rw [if_pos hs, if_pos ht] at h
      exact identifier_append_inj hs ht (hcolon r) (hcolon r') h
    · rw [if_pos hs, if_neg ht] at h
      exact absurd h (identifier_append_ne hs _ _)
    · rw [if_neg hs, if_pos ht] at h
      exact absurd h.symm (identifier_append_ne ht _ _)
    · rw [if_neg hs, if_neg ht] at h
      exact literal_append_inj h
  exact ⟨hparts.1, (List.cons.inj hparts.2).2⟩

end Quoted

end DataShapes
